import Peg.ParseError
import Peg.Proofs.Description

/-!
# The mark of a placeholder without a target

A description shows of a placeholder its name and whether it has a target: one that has
none bears a mark. When placeholders get their targets, the descriptions made from then on
lack some of the marks, and this is all that changes in them. `Text.Sheds` says so of two
texts, and `describe_sheds` of the descriptions of a node under fewer and under more
bindings. A node that cannot be described under the ones cannot be described under the
others either, and for the same reason.

Errors cite descriptions, and the errors of actions cite other errors. What holds of the
descriptions holds of all their messages, because a mark lies within a line.
-/

namespace Peg

variable {α β γ δ : Type}

/-- What a description adds to a placeholder that has no target. -/
def unresolvedMark : Text := ", unresolved"

/-- The second text is the first without some of the marks in it. -/
inductive Text.Sheds : Text → Text → Prop
  | nil : Sheds [] []
  | keep (c : CodePoint) {t t' : Text} : Sheds t t' → Sheds (c :: t) (c :: t')
  | drop {t t' : Text} : Sheds t t' → Sheds (unresolvedMark ++ t) t'

namespace Text.Sheds

variable {t t' u u' : Text}

theorem refl (t : Text) : t.Sheds t := by
  induction t with
  | nil => exact .nil
  | cons c t ih => exact .keep c ih

theorem append (h : t.Sheds t') (hu : u.Sheds u') : (t ++ u).Sheds (t' ++ u') := by
  induction h with
  | nil => exact hu
  | keep c _ ih => exact .keep c ih
  | drop _ ih => rw [List.append_assoc]; exact .drop ih

theorem join (separator : Text) {ts ts' : List Text} (h : List.Forall₂ Text.Sheds ts ts') :
    (Text.join separator ts).Sheds (Text.join separator ts') := by
  induction h with
  | nil => exact .nil
  | @cons t t' ts ts' ht hts ih =>
      cases hts with
      | nil => exact ht
      | cons hu hus =>
          rw [Text.join, Text.join]
          exact (ht.append (.refl separator)).append ih

theorem construct (name : String) {ts ts' : List Text} (h : List.Forall₂ Text.Sheds ts ts') :
    (construct name ts).Sheds (Peg.construct name ts') :=
  ((Text.Sheds.refl _).append (.refl _)).append (.join _ h) |>.append (.refl _)

/-- A mark spans no lines. -/
theorem replaceNewlines (new : Text) (h : t.Sheds t') :
    (replaceNewlines new t).Sheds (Text.replaceNewlines new t') := by
  have hmark : Text.replaceNewlines new unresolvedMark = unresolvedMark := rfl
  unfold Text.replaceNewlines at hmark ⊢
  induction h with
  | nil => exact .nil
  | keep c _ ih =>
      rw [List.flatMap_cons, List.flatMap_cons]
      exact (Text.Sheds.refl _).append ih
  | drop _ ih =>
      rw [List.flatMap_append, hmark]
      exact .drop ih

theorem tupleText {ts ts' : List Text} (h : List.Forall₂ Text.Sheds ts ts') :
    (tupleText ts).Sheds (Peg.tupleText ts') := by
  cases h with
  | nil => exact .refl _
  | cons ht hts =>
      cases hts with
      | nil => exact ((Text.Sheds.refl _).append ht).append (.refl _)
      | cons hu hus =>
          exact ((Text.Sheds.refl _).append (.join _ (.cons ht (.cons hu hus)))).append (.refl _)

/-- A placeholder that got its target is shown without the mark. -/
theorem placeholder {bound bound' : Bool} (h : t.Sheds t') (hbound : bound = true → bound' = true) :
    (Peg.construct "Recursion" (if bound then [t] else [t, "unresolved"])).Sheds
      (Peg.construct "Recursion" (if bound' then [t'] else [t', "unresolved"])) := by
  cases bound with
  | true =>
      rw [if_pos rfl, if_pos (hbound rfl)]
      exact .construct _ (.cons h .nil)
  | false =>
      cases bound' with
      | false => exact .construct _ (.cons h (.cons (.refl _) .nil))
      | true =>
          have hjoin : Text.join ", " [t, "unresolved"] = t ++ unresolvedMark := by
            rw [Text.join, Text.join, List.append_assoc]
            rfl
          have hmark : (t ++ unresolvedMark).Sheds t' := by
            simpa using h.append (.drop .nil)
          rw [if_neg (by simp), if_pos rfl, Peg.construct, Peg.construct, hjoin, Text.join]
          exact ((Text.Sheds.refl _).append hmark).append (.refl _)

end Text.Sheds

/-- Two descriptions of one thing: they have the same fault, or are related by `R`. -/
inductive AlikeUpTo (R : β → β → Prop) : Except Fault β → Except Fault β → Prop
  | ok {x x' : β} : R x x' → AlikeUpTo R (.ok x) (.ok x')
  | error (f : Fault) : AlikeUpTo R (.error f) (.error f)

theorem AlikeUpTo.refl {R : β → β → Prop} (hR : ∀ x, R x x) (d : Except Fault β) :
    AlikeUpTo R d d := by
  cases d with
  | ok x => exact .ok (hR x)
  | error f => exact .error f

theorem AlikeUpTo.bind {R : β → β → Prop} {Q : γ → γ → Prop} {d d' : Except Fault β}
    {next next' : β → Except Fault γ} (hd : AlikeUpTo R d d')
    (hnext : ∀ x x', R x x' → AlikeUpTo Q (next x) (next' x')) :
    AlikeUpTo Q (d >>= next) (d' >>= next') := by
  cases hd with
  | ok hR => exact hnext _ _ hR
  | error f => exact .error f

/-! ## Descriptions -/

section Descriptions

variable [Named α] {isBound isBound' : Nat → Bool}

mutual

theorem write_sheds (h : ∀ id, isBound id = true → isBound' id = true) (verbatim : Bool) :
    ∀ v : Value α, AlikeUpTo Text.Sheds (v.write isBound verbatim) (v.write isBound' verbatim)
  | .null | .bool _ | .int _ | .float _ | .text _ | .action _ => by
      rw [Value.write, Value.write]; exact .refl .refl _
  | .list items => by
      rw [Value.write, Value.write]
      exact (writeAll_sheds h items).bind fun _ _ hts =>
        .ok (((Text.Sheds.refl _).append (.join _ hts)).append (.refl _))
  | .tuple items => by
      rw [Value.write, Value.write]
      exact (writeAll_sheds h items).bind fun _ _ hts => .ok (.tupleText hts)
  | .dict entries => by
      rw [Value.write, Value.write]
      exact (writeEntries_sheds h entries).bind fun _ _ hts =>
        .ok (((Text.Sheds.refl _).append (.join _ hts)).append (.refl _))
  | .captured label value => by
      rw [Value.write, Value.write]
      exact (write_sheds h false label).bind fun _ _ hl =>
        (write_sheds h false value).bind fun _ _ hv =>
          .ok (.construct _ (.cons hl (.cons hv .nil)))
  | .node n => by
      rw [Value.write, Value.write]
      exact describe_sheds h n 2
  | .grammar _ name => by
      rw [Value.write, Value.write]
      exact (write_sheds h false name).bind fun _ _ ht => .ok (.construct _ (.cons ht .nil))

theorem writeAll_sheds (h : ∀ id, isBound id = true → isBound' id = true) :
    ∀ vs : List (Value α), AlikeUpTo (List.Forall₂ Text.Sheds) (Value.writeAll isBound vs)
      (Value.writeAll isBound' vs)
  | [] => by rw [Value.writeAll, Value.writeAll]; exact .ok .nil
  | v :: vs => by
      rw [Value.writeAll, Value.writeAll]
      exact (write_sheds h false v).bind fun _ _ ht =>
        (writeAll_sheds h vs).bind fun _ _ hts => .ok (.cons ht hts)

theorem writeEntries_sheds (h : ∀ id, isBound id = true → isBound' id = true) :
    ∀ es : List (Value α × Value α), AlikeUpTo (List.Forall₂ Text.Sheds)
      (Value.writeEntries isBound es) (Value.writeEntries isBound' es)
  | [] => by rw [Value.writeEntries, Value.writeEntries]; exact .ok .nil
  | (k, v) :: es => by
      rw [Value.writeEntries, Value.writeEntries]
      exact (write_sheds h false k).bind fun _ _ hk =>
        (write_sheds h false v).bind fun _ _ hv =>
          (writeEntries_sheds h es).bind fun _ _ hts =>
            .ok (.cons ((hk.append (.refl _)).append hv) hts)

/-- Under more bindings a node is described as before, but for marks that are gone. -/
theorem describe_sheds (h : ∀ id, isBound id = true → isBound' id = true) :
    ∀ (n : Node α) (depth : Int), AlikeUpTo Text.Sheds (n.describe isBound depth)
      (n.describe isBound' depth)
  | .literal _, _ | .range _ _, _ | .empty _, _ | .bare, _ | .stray _, _
  | .looseRange _ _, _ => by
      rw [Node.describe, Node.describe]; exact .refl .refl _
  | .placeholder id name, _ => by
      rw [Node.describe, Node.describe]
      split
      · exact (write_sheds h true name).bind fun _ _ ht => .ok (ht.placeholder (h id))
      · exact .ok ((Text.Sheds.refl _).placeholder (h id))
  | .looseLiteral text, _ => by
      rw [Node.describe, Node.describe]
      exact (write_sheds h false text).bind fun _ _ ht => .ok (.construct _ (.cons ht .nil))
  | .sequence items, depth => by
      rw [Node.describe, Node.describe]
      split
      · exact .ok (.refl _)
      · exact (describeAll_sheds h items _).bind fun _ _ hts => .ok (.construct _ hts)
  | .choice alternatives, depth => by
      rw [Node.describe, Node.describe]
      split
      · exact .ok (.refl _)
      · exact (describeAll_sheds h alternatives _).bind fun _ _ hts => .ok (.construct _ hts)
  | .many item, depth => by
      rw [Node.describe, Node.describe]
      split
      · exact .ok (.refl _)
      · exact (describe_sheds h item _).bind fun _ _ ht => .ok (.construct _ (.cons ht .nil))
  | .exclusion item forbidden, depth => by
      rw [Node.describe, Node.describe]
      split
      · exact .ok (.refl _)
      · exact (describe_sheds h item _).bind fun _ _ ht =>
          (describe_sheds h forbidden _).bind fun _ _ hf =>
            .ok (.construct _ (.cons ht (.cons hf .nil)))
  | .capture label item, depth => by
      rw [Node.describe, Node.describe]
      split
      · exact .ok (.refl _)
      · exact (write_sheds h false label).bind fun _ _ hl =>
          (describe_sheds h item _).bind fun _ _ ht =>
            .ok (.construct _ (.cons hl (.cons ht .nil)))
  | .action item act, depth => by
      rw [Node.describe, Node.describe]
      split
      · exact .ok (.refl _)
      · exact (describe_sheds h item _).bind fun _ _ ht =>
          .ok (.construct _ (.cons ht (.cons (.refl _) .nil)))

theorem describeAll_sheds (h : ∀ id, isBound id = true → isBound' id = true) :
    ∀ (ns : List (Node α)) (depth : Int), AlikeUpTo (List.Forall₂ Text.Sheds)
      (Node.describeAll isBound ns depth) (Node.describeAll isBound' ns depth)
  | [], _ => by rw [Node.describeAll, Node.describeAll]; exact .ok .nil
  | n :: ns, depth => by
      rw [Node.describeAll, Node.describeAll]
      exact (describe_sheds h n depth).bind fun _ _ ht =>
        (describeAll_sheds h ns depth).bind fun _ _ hts => .ok (.cons ht hts)

end

end Descriptions

/-! ## Errors -/

/-- The second reason is the first, but for marks in its description of what is forbidden, or
in the message of an error that an action raised. -/
inductive Reason.Sheds : Reason α → Reason α → Prop
  | refl (r : Reason α) : Sheds r r
  | excluded {t t' : Text} : t.Sheds t' → Sheds (.excluded t) (.excluded t')
  | transform (kind : Kind) {t t' : Text} :
    t.Sheds t' → Sheds (.transform kind t) (.transform kind t')

/-- The second tree of errors is the first without some marks in its reasons. -/
inductive ParseError.Sheds : ParseError α → ParseError α → Prop
  | leaf {r r' : Reason α} (pos : Int) (labels : List (Value α)) :
    r.Sheds r' → Sheds (.leaf r pos labels) (.leaf r' pos labels)
  | exhausted {es es' : List (ParseError α)} (pos : Int) (labels : List (Value α)) :
    List.Forall₂ Sheds es es' → Sheds (.exhausted es pos labels) (.exhausted es' pos labels)

theorem Reason.Sheds.kind {r r' : Reason α} (h : r.Sheds r') : r.kind = r'.kind := by
  cases h <;> rfl

theorem Reason.Sheds.text {r r' : Reason α} (h : r.Sheds r') : r.text.Sheds r'.text := by
  cases h with
  | refl r => exact .refl _
  | excluded ht => exact ((Text.Sheds.refl _).append ht).append (.refl _)
  | transform kind ht => exact (Text.Sheds.refl _).append ht

namespace ParseError.Sheds

variable {e e' : ParseError α}

theorem refl : ∀ e : ParseError α, e.Sheds e
  | .leaf r pos labels => .leaf pos labels (.refl r)
  | .exhausted es pos labels =>
      .exhausted pos labels (List.forall₂_same.mpr fun e _ => ParseError.Sheds.refl e)

theorem addLabel (h : e.Sheds e') (label : Value α) :
    (e.addLabel label).Sheds (e'.addLabel label) := by
  cases h with
  | leaf pos labels hr => exact .leaf pos _ hr
  | exhausted pos labels hes => exact .exhausted pos _ hes

theorem kind (h : e.Sheds e') : e.kind = e'.kind := by
  cases h with
  | leaf pos labels hr => exact hr.kind
  | exhausted pos labels hes => rfl

theorem pos (h : e.Sheds e') : e.pos = e'.pos := by
  cases h <;> rfl

theorem labels (h : e.Sheds e') : e.labels = e'.labels := by
  cases h <;> rfl

theorem message (h : e.Sheds e') : e.message.Sheds e'.message := by
  cases h with
  | leaf pos labels hr => exact hr.text
  | exhausted pos labels hes =>
      rw [ParseError.message, ParseError.message, hes.length_eq]
      exact .refl _

theorem ownHeadline [Named α] (h : e.Sheds e') :
    AlikeUpTo Text.Sheds e.ownHeadline e'.ownHeadline := by
  rw [ParseError.ownHeadline, ParseError.ownHeadline, h.labels]
  split
  · exact .ok h.message
  · exact (AlikeUpTo.refl (fun _ => rfl) _).bind fun _ _ heq =>
      heq ▸ .ok ((Text.Sheds.refl _).append h.message)

end ParseError.Sheds

section Messages

variable [Named α]

mutual

theorem headline_sheds : ∀ {e e' : ParseError α}, e.Sheds e' →
    AlikeUpTo Text.Sheds e.headline e'.headline
  | .leaf _ pos labels, _, h => by
      cases h with
      | leaf _ _ hr =>
          rw [ParseError.headline, ParseError.headline]
          exact (ParseError.Sheds.leaf pos labels hr).ownHeadline
  | .exhausted es pos labels, _, h => by
      cases h with
      | exhausted _ _ hes =>
          rw [ParseError.headline, ParseError.headline]
          exact (ParseError.Sheds.exhausted pos labels hes).ownHeadline.bind fun _ _ hown =>
            (outlineBelow_sheds hes).bind fun _ _ hbelow => .ok (hown.append hbelow)

theorem outlineBelow_sheds : ∀ {es es' : List (ParseError α)},
    List.Forall₂ ParseError.Sheds es es' →
      AlikeUpTo Text.Sheds (ParseError.outlineBelow es) (ParseError.outlineBelow es')
  | [], _, h => by
      cases h with
      | nil =>
          rw [ParseError.outlineBelow]
          exact .ok (.refl _)
  | e :: es, _, h => by
      cases h with
      | cons he hes =>
          rw [ParseError.outlineBelow, ParseError.outlineBelow]
          exact (headline_sheds he).bind fun _ _ hfirst =>
            (outlineBelow_sheds hes).bind fun _ _ hbelow =>
              .ok (((Text.Sheds.refl _).append (hfirst.replaceNewlines _)).append hbelow)

end

/-- The full message of an error, the excerpt included, loses no more than marks. -/
theorem ParseError.Sheds.render {e e' : ParseError α} (h : e.Sheds e') (text : Option Text) :
    AlikeUpTo Text.Sheds (e.render text) (e'.render text) := by
  rw [ParseError.render, ParseError.render, h.pos]
  refine (headline_sheds h).bind fun _ _ hheadline => ?_
  cases text with
  | none => exact .ok hheadline
  | some t => exact .ok ((hheadline.append (.refl _)).append (.refl _))

end Messages

/-- The second fault is the first, but for marks where it names its placeholder. -/
inductive Fault.Sheds : Fault → Fault → Prop
  | refl (f : Fault) : Sheds f f
  | leftRecursion {t t' : Text} (pos : Int) :
    t.Sheds t' → Sheds (.leftRecursion t pos) (.leftRecursion t' pos)

end Peg
