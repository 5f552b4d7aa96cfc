import Peg.Proofs.ErrorTree

/-!
# Labels that can be shown

A capture made without checks may have anything for its label. Its errors keep the label as
they would any other, but they cannot be shown: the message of an error joins its labels, and
this takes texts. Nothing else can be wrong with a message (`faultsInLabels_render`).

Where all labels of a tree are texts, the headline of each of its errors is what `words` spells
out: the labels from the outermost one inward, in parentheses, and then what went wrong.
-/

namespace Peg

variable {α : Type}

/-- The text that a value is. -/
def Value.text? : Value α → Option Text
  | text t => some t
  | _ => none

namespace ParseError

/-- All labels in the tree are texts. -/
def HasTextLabels (e : ParseError α) : Prop :=
  ∀ e' ∈ e.tree, ∀ label ∈ e'.labels, ∃ t, label = .text t

/-- The labels that are texts, the outermost first. -/
def trail (e : ParseError α) : List Text := (e.labels.filterMap Value.text?).reverse

/-- What an error says of itself. -/
def words (e : ParseError α) : Text :=
  if e.trail = [] then e.message
  else "(" ++ List.intercalate "." e.trail ++ ") " ++ e.message

theorem HasTextLabels.child {es : List (ParseError α)} {pos : Int} {labels : List (Value α)}
    (h : (exhausted es pos labels).HasTextLabels) {e : ParseError α} (he : e ∈ es) :
    e.HasTextLabels := fun e' he' =>
  h e' (mem_tree_exhausted.mpr (.inr ⟨e, he, he'⟩))

theorem HasTextLabels.addLabel {e : ParseError α} (h : e.HasTextLabels) (t : Text) :
    (e.addLabel (.text t)).HasTextLabels := by
  intro e' he' label hlabel
  rcases mem_tree_addLabel he' with rfl | hmem
  · have hlabels : (e.addLabel (.text t)).labels = e.labels ++ [.text t] := by cases e <;> rfl
    rw [hlabels, List.mem_append, List.mem_singleton] at hlabel
    rcases hlabel with hlabel | rfl
    · exact h e e.self_mem_tree label hlabel
    · exact ⟨t, rfl⟩
  · exact h e' hmem label hlabel

end ParseError

theorem Text.join_eq_intercalate (separator : Text) (ts : List Text) :
    Text.join separator ts = List.intercalate separator ts := by
  induction ts with
  | nil => rfl
  | cons t ts ih =>
      cases ts with
      | nil => simp [Text.join, List.intercalate]
      | cons u us => rw [Text.join, ih]; simp [List.intercalate]

namespace ParseError

variable [Named α]

/-! ## What can be shown -/

theorem labelTexts_of_text {labels : List (Value α)} (h : ∀ label ∈ labels, ∃ t, label = .text t)
    (index : Nat) : labelTexts index labels = .ok (labels.filterMap Value.text?) := by
  induction labels generalizing index with
  | nil => rfl
  | cons label labels ih =>
      obtain ⟨t, rfl⟩ := h label List.mem_cons_self
      rw [labelTexts, ih (fun l hl => h l (List.mem_cons_of_mem _ hl))]
      rfl

/-- What an error says of itself is the headline that it has without its children. -/
theorem ownHeadline_eq {e : ParseError α} (h : e.HasTextLabels) : e.ownHeadline = .ok e.words := by
  have hlabels := h e e.self_mem_tree
  have htexts := labelTexts_of_text (fun l hl => hlabels l (List.mem_reverse.mp hl)) 0
  rw [List.filterMap_reverse] at htexts
  rw [ownHeadline, words]
  cases hl : e.labels with
  | nil =>
      have hnone : e.trail = [] := by simp [trail, hl]
      rw [if_pos hnone]
      rfl
  | cons label labels =>
      obtain ⟨t, rfl⟩ := hlabels label (hl ▸ List.mem_cons_self)
      have hsome : e.trail ≠ [] := by simp [trail, hl, Value.text?]
      rw [← hl, htexts, if_neg hsome, ← Text.join_eq_intercalate]
      simp [hl, trail, bind, Except.bind, pure, Except.pure]

mutual

theorem headline_ok : ∀ {e : ParseError α}, e.HasTextLabels → ∃ t, e.headline = .ok t
  | .leaf reason pos labels, h => by
      rw [headline, ownHeadline_eq h]
      exact ⟨_, rfl⟩
  | .exhausted children pos labels, h => by
      obtain ⟨t, ht⟩ := outlineBelow_ok fun e he => h.child he
      rw [headline, ownHeadline_eq h, ht]
      exact ⟨_, rfl⟩

theorem outlineBelow_ok : ∀ {es : List (ParseError α)}, (∀ e ∈ es, e.HasTextLabels) →
    ∃ t, outlineBelow es = .ok t
  | [], _ => by
      rw [outlineBelow]
      exact ⟨[], rfl⟩
  | e :: es, h => by
      obtain ⟨t, ht⟩ := headline_ok (h e List.mem_cons_self)
      obtain ⟨u, hu⟩ := outlineBelow_ok fun e' he' => h e' (List.mem_cons_of_mem _ he')
      rw [outlineBelow, ht, hu]
      exact ⟨_, rfl⟩

end

/-- The only fault that it may have is that of a label. -/
def FaultsInLabels {β : Type} (d : Except Fault β) : Prop :=
  ∀ f, d = .error f → ∃ index typeName, f = .notAmongLabels index typeName

theorem FaultsInLabels.ok {β : Type} (x : β) : FaultsInLabels (.ok x) := fun f h => by cases h

theorem FaultsInLabels.bind {β γ : Type} {d : Except Fault β} {next : β → Except Fault γ}
    (hd : FaultsInLabels d) (hnext : ∀ x, FaultsInLabels (next x)) :
    FaultsInLabels (d >>= next) := by
  cases d with
  | error f => exact fun g h => by cases h; exact hd f rfl
  | ok x => exact hnext x

theorem faultsInLabels_labelTexts (index : Nat) (labels : List (Value α)) :
    FaultsInLabels (labelTexts index labels) := by
  induction labels generalizing index with
  | nil => exact .ok _
  | cons label labels ih =>
      cases label with
      | text t => exact (ih (index + 1)).bind fun _ => .ok _
      | _ => exact fun f h => by cases h; exact ⟨_, _, rfl⟩

theorem faultsInLabels_ownHeadline (e : ParseError α) : FaultsInLabels e.ownHeadline := by
  rw [ownHeadline]
  split
  · exact .ok _
  · exact (faultsInLabels_labelTexts 0 _).bind fun _ => .ok _

mutual

theorem faultsInLabels_headline : ∀ e : ParseError α, FaultsInLabels e.headline
  | .leaf reason pos labels => by
      rw [headline]
      exact faultsInLabels_ownHeadline _
  | .exhausted children pos labels => by
      rw [headline]
      exact (faultsInLabels_ownHeadline _).bind fun _ =>
        (faultsInLabels_outlineBelow children).bind fun _ => .ok _

theorem faultsInLabels_outlineBelow : ∀ es : List (ParseError α), FaultsInLabels (outlineBelow es)
  | [] => by
      rw [outlineBelow]
      exact .ok _
  | e :: es => by
      rw [outlineBelow]
      exact (faultsInLabels_headline e).bind fun _ =>
        (faultsInLabels_outlineBelow es).bind fun _ => .ok _

end

/-- The only thing that can be wrong with the message of a parse error is a label. -/
theorem faultsInLabels_render (e : ParseError α) (text : Option Text) :
    FaultsInLabels (e.render text) := by
  rw [render]
  refine (faultsInLabels_headline e).bind fun headline => ?_
  cases text <;> exact .ok _

theorem raised_cases (e : ParseError α) (text : Option Text) :
    (∃ t, e.raised text = .shown e.kind t) ∨
      ∃ i t, e.raised text = .unshown e.kind (Fault.notAmongLabels i t).raised := by
  rw [raised]
  cases hrender : e.render text with
  | ok t => exact .inl ⟨t, rfl⟩
  | error f =>
      obtain ⟨i, t, rfl⟩ := faultsInLabels_render e text f hrender
      exact .inr ⟨i, t, rfl⟩

end ParseError

end Peg
