import Peg.Proofs.Regular

/-!
# Reading from the front of a text

Whether a node matches, and what comes of it, depends only on what the text is from the
position on. `readNode` is matching stated in those terms: it takes the rest of a text
and gives back what is left of it. It keeps no positions, writes no errors, and has no
check on left recursion, so it is the form in which a grammar can be reasoned about as
a grammar: what is read is a list of code points taken off the front of another.

Like a match, a reading may nest only as deep as a number of levels, and where a match
would go below them the reading is *stuck*. A reading that is not stuck is the same for
any more levels. A rule that refers to itself on the left is stuck at every level.

How readings and matches are related is the subject of `Peg.Proofs.Agreement`.
-/

namespace Peg

variable {α β γ : Type}

/-- What comes of reading something from the front of a text. -/
inductive Reading (β : Type) where
  | matched (value : β) (rest : Text)
  | mismatch
  /-- There is no answer within the levels given. -/
  | stuck

namespace Reading

/-- Goes on after a match. -/
def andThen : Reading β → (β → Text → Reading γ) → Reading γ
  | matched value rest, next => next value rest
  | mismatch, _ => mismatch
  | stuck, _ => stuck

def map (f : β → γ) : Reading β → Reading γ
  | matched value rest => matched (f value) rest
  | mismatch => mismatch
  | stuck => stuck

/-- The second reading is the first, unless the first was stuck. -/
def Extends (r r' : Reading β) : Prop := r ≠ stuck → r' = r

theorem Extends.refl (r : Reading β) : r.Extends r := fun _ => rfl

theorem Extends.andThen {r r' : Reading β} {next next' : β → Text → Reading γ}
    (h : r.Extends r') (hnext : ∀ v rest, (next v rest).Extends (next' v rest)) :
    (r.andThen next).Extends (r'.andThen next') := by
  intro hne
  cases r with
  | matched v rest =>
      rw [h (by simp)]
      exact hnext v rest hne
  | mismatch => rw [h (by simp)]; rfl
  | stuck => exact absurd rfl hne

theorem Extends.map {r r' : Reading β} {f : β → γ} (h : r.Extends r') :
    (r.map f).Extends (r'.map f) := by
  intro hne
  rw [h fun hr => hne (by rw [hr]; rfl)]

@[simp] theorem map_eq_matched {f : β → γ} {r : Reading β} {w : γ} {rest : Text} :
    r.map f = matched w rest ↔ ∃ v, r = matched v rest ∧ f v = w := by
  cases r <;> simp [map, and_comm]

@[simp] theorem map_eq_stuck {f : β → γ} {r : Reading β} : r.map f = stuck ↔ r = stuck := by
  cases r <;> simp [map]

@[simp] theorem map_eq_mismatch {f : β → γ} {r : Reading β} :
    r.map f = mismatch ↔ r = mismatch := by
  cases r <;> simp [map]

theorem andThen_eq_matched {r : Reading β} {next : β → Text → Reading γ} {w : γ}
    {rest : Text} :
    r.andThen next = matched w rest ↔
      ∃ v mid, r = matched v mid ∧ next v mid = matched w rest := by
  cases r <;> simp [andThen]

end Reading

/-! ## The loops -/

/-- One node after the other. -/
def readAll (step : Node α → Text → Reading (Value α)) :
    List (Node α) → Text → Reading (List (Value α))
  | [], s => .matched [] s
  | n :: ns, s => (step n s).andThen fun v rest => (readAll step ns rest).map (v :: ·)

/-- The first of the nodes that does not fail. -/
def readFirst (step : Node α → Reading (Value α)) : List (Node α) → Reading (Value α)
  | [] => .mismatch
  | n :: ns =>
    match step n with
    | .matched v rest => .matched v rest
    | .mismatch => readFirst step ns
    | .stuck => .stuck

/-- As many matches in a row as there are, each of which takes something off the text;
no more than `room`. -/
def readMany (step : Text → Reading (Value α)) :
    (room : Nat) → Text → Reading (List (Value α))
  | 0, s => .matched [] s
  | room + 1, s =>
    match step s with
    | .matched v rest =>
      if rest.length = s.length then .matched [] s
      else (readMany step room rest).map (v :: ·)
    | .mismatch => .matched [] s
    | .stuck => .stuck

theorem readAll_extends {step step' : Node α → Text → Reading (Value α)}
    {items : List (Node α)} (hstep : ∀ n ∈ items, ∀ s, (step n s).Extends (step' n s))
    (s : Text) : (readAll step items s).Extends (readAll step' items s) := by
  induction items generalizing s with
  | nil => exact .refl _
  | cons n ns ih =>
      rw [readAll, readAll]
      exact (hstep n (by simp) s).andThen fun v rest =>
        (ih (fun m hm => hstep m (by simp [hm])) rest).map

theorem readAll_append {step : Node α → Text → Reading (Value α)} {before after : List (Node α)}
    {s mid : Text} {vs : List (Value α)} (h : readAll step before s = .matched vs mid) :
    readAll step (before ++ after) s = (readAll step after mid).map (vs ++ ·) := by
  induction before generalizing s vs with
  | nil =>
      cases h
      rw [List.nil_append]
      cases readAll step after mid <;> rfl
  | cons n ns ih =>
      obtain ⟨v, rest, hv, hvs⟩ := Reading.andThen_eq_matched.mp h
      obtain ⟨ws, hws, rfl⟩ := Reading.map_eq_matched.mp hvs
      rw [List.cons_append, readAll, hv, Reading.andThen, ih hws]
      cases readAll step after mid <;> rfl

theorem readFirst_extends {step step' : Node α → Reading (Value α)}
    {alternatives : List (Node α)} (hstep : ∀ n ∈ alternatives, (step n).Extends (step' n)) :
    (readFirst step alternatives).Extends (readFirst step' alternatives) := by
  induction alternatives with
  | nil => exact .refl _
  | cons n ns ih =>
      have hn := hstep n (by simp)
      have hns := ih fun m hm => hstep m (by simp [hm])
      intro hne
      rw [readFirst] at hne ⊢
      rw [readFirst]
      cases hs : step n with
      | matched v rest => rw [hn (by simp [hs]), hs]
      | mismatch =>
          rw [hs] at hne
          rw [hn (by simp [hs]), hs]
          exact hns hne
      | stuck => rw [hs] at hne; exact absurd rfl hne

theorem readMany_extends {step step' : Text → Reading (Value α)}
    (hstep : ∀ s, (step s).Extends (step' s)) (room : Nat) (s : Text) :
    (readMany step room s).Extends (readMany step' room s) := by
  induction room generalizing s with
  | zero => exact .refl _
  | succ room ih =>
      intro hne
      rw [readMany] at hne ⊢
      rw [readMany]
      cases hs : step s with
      | matched v rest =>
          rw [hs] at hne
          rw [hstep s (by simp [hs]), hs]
          simp only [] at hne ⊢
          split
          · rfl
          · next hmoved =>
              rw [if_neg hmoved] at hne
              exact (ih rest).map hne
      | mismatch => rw [hstep s (by simp [hs]), hs]
      | stuck => rw [hs] at hne; exact absurd rfl hne

/-! ## Reading a node -/

/-- A given text. -/
def readLiteral (t s : Text) : Reading (Value α) :=
  if t <+: s then .matched (.text t) (s.drop t.length) else .mismatch

/-- A code point in a range. -/
def readRange (low high : Int) : Text → Reading (Value α)
  | [] => .mismatch
  | c :: rest => if low ≤ c.val ∧ c.val ≤ high then .matched (.text [c]) rest else .mismatch

/-- What an action makes of a raw result, after which `rest` is left. -/
def ActionResult.reading (rest : Text) : ActionResult α → Reading (Value α)
  | .value w => .matched w rest
  | .raised r => if r.IsPlain then .mismatch else .stuck
  | .parse .. => .stuck

/-- Reads a node from the front of a text. -/
def readNode (ctx : Context α) : (limit : Nat) → Node α → Text → Reading (Value α)
  | 0, _, _ => .stuck
  | limit + 1, node, s =>
    match node with
    | .literal t => readLiteral t s
    | .range low high => readRange low high s
    | .sequence items => (readAll (readNode ctx limit) items s).map .tuple
    | .choice alternatives => readFirst (readNode ctx limit · s) alternatives
    | .many item => (readMany (readNode ctx limit item) (s.length + 2) s).map .list
    | .exclusion item forbidden =>
      (readNode ctx limit item s).andThen fun v rest =>
        match readNode ctx limit forbidden s with
        | .matched .. => .mismatch
        | .mismatch => .matched v rest
        | .stuck => .stuck
    | .capture label item => (readNode ctx limit item s).map (.captured label)
    | .placeholder id _ =>
      match ctx.bindings.target? id with
      | none => .stuck
      | some target => readNode ctx limit target s
    | .action item act =>
      (readNode ctx limit item s).andThen fun v rest => (ctx.perform act v).reading rest
    | .empty _ => .matched .null s
    | .bare | .stray _ | .looseLiteral _ | .looseRange .. => .stuck

section Equations

variable {ctx : Context α} {limit : Nat} {s : Text}

theorem readNode_zero (node : Node α) : readNode ctx 0 node s = .stuck := rfl

theorem readNode_literal (t : Text) :
    readNode ctx (limit + 1) (.literal t) s = readLiteral t s := rfl

theorem readNode_range (low high : Int) :
    readNode ctx (limit + 1) (.range low high) s = readRange low high s := rfl

theorem readNode_sequence (items : List (Node α)) :
    readNode ctx (limit + 1) (.sequence items) s =
      (readAll (readNode ctx limit) items s).map .tuple := rfl

theorem readNode_choice (alternatives : List (Node α)) :
    readNode ctx (limit + 1) (.choice alternatives) s =
      readFirst (readNode ctx limit · s) alternatives := rfl

theorem readNode_many (item : Node α) :
    readNode ctx (limit + 1) (.many item) s =
      (readMany (readNode ctx limit item) (s.length + 2) s).map .list := rfl

theorem readNode_exclusion (item forbidden : Node α) :
    readNode ctx (limit + 1) (.exclusion item forbidden) s =
      (readNode ctx limit item s).andThen fun v rest =>
        match readNode ctx limit forbidden s with
        | .matched .. => .mismatch
        | .mismatch => .matched v rest
        | .stuck => .stuck := rfl

theorem readNode_capture (label : Value α) (item : Node α) :
    readNode ctx (limit + 1) (.capture label item) s =
      (readNode ctx limit item s).map (.captured label) := rfl

theorem readNode_placeholder (id : Nat) (name : Value α) :
    readNode ctx (limit + 1) (.placeholder id name) s =
      match ctx.bindings.target? id with
      | none => .stuck
      | some target => readNode ctx limit target s := rfl

theorem readNode_action (item : Node α) (act : α) :
    readNode ctx (limit + 1) (.action item act) s =
      (readNode ctx limit item s).andThen fun v rest => (ctx.perform act v).reading rest := rfl

theorem readNode_empty (shared : Bool) :
    readNode ctx (limit + 1) (.empty shared) s = .matched .null s := rfl

end Equations

theorem readNode_extends (ctx : Context α) {limit limit' : Nat} (hle : limit ≤ limit') :
    ∀ (node : Node α) (s : Text),
      (readNode ctx limit node s).Extends (readNode ctx limit' node s) := by
  induction limit generalizing limit' with
  | zero => intro node s hne; exact absurd (by rw [readNode_zero]) hne
  | succ limit ih =>
      intro node s
      obtain ⟨limit', rfl⟩ : ∃ k, limit' = k + 1 := ⟨limit' - 1, by omega⟩
      have hbelow : ∀ n s, (readNode ctx limit n s).Extends (readNode ctx limit' n s) :=
        ih (by omega)
      cases node with
      | sequence items =>
          rw [readNode_sequence, readNode_sequence]
          exact (readAll_extends (fun n _ => hbelow n) s).map
      | choice alternatives =>
          rw [readNode_choice, readNode_choice]
          exact readFirst_extends fun n _ => hbelow n s
      | many item =>
          rw [readNode_many, readNode_many]
          exact (readMany_extends (hbelow item) _ s).map
      | exclusion item forbidden =>
          rw [readNode_exclusion, readNode_exclusion]
          refine (hbelow item s).andThen fun v rest hne => ?_
          cases h : readNode ctx limit forbidden s with
          | matched w mid => rw [hbelow forbidden s (by simp [h]), h]
          | mismatch => rw [hbelow forbidden s (by simp [h]), h]
          | stuck => rw [h] at hne; exact absurd rfl hne
      | capture label item =>
          rw [readNode_capture, readNode_capture]
          exact (hbelow item s).map
      | action item act =>
          rw [readNode_action, readNode_action]
          exact (hbelow item s).andThen fun v rest => .refl _
      | placeholder id name =>
          rw [readNode_placeholder, readNode_placeholder]
          cases ctx.bindings.target? id with
          | none => exact .refl _
          | some target => exact hbelow target s
      | bare | literal _ | range _ _ | empty _ | stray _ | looseLiteral _ | looseRange _ _ =>
          exact fun _ => rfl

/-- A reading that is not stuck is the same for any more levels. -/
theorem readNode_mono {ctx : Context α} {limit limit' : Nat} {node : Node α} {s : Text}
    (hle : limit ≤ limit') (h : readNode ctx limit node s ≠ .stuck) :
    readNode ctx limit' node s = readNode ctx limit node s :=
  readNode_extends ctx hle node s h

theorem readNode_matched_mono {ctx : Context α} {limit limit' : Nat} {node : Node α}
    {s rest : Text} {v : Value α} (hle : limit ≤ limit')
    (h : readNode ctx limit node s = .matched v rest) :
    readNode ctx limit' node s = .matched v rest := by
  rw [readNode_mono hle (by simp [h]), h]

theorem readNode_mismatch_mono {ctx : Context α} {limit limit' : Nat} {node : Node α}
    {s : Text} (hle : limit ≤ limit') (h : readNode ctx limit node s = .mismatch) :
    readNode ctx limit' node s = .mismatch := by
  rw [readNode_mono hle (by simp [h]), h]

/-! ## What is left is an end of the text -/

theorem readAll_suffix {step : Node α → Text → Reading (Value α)} {items : List (Node α)}
    {s rest : Text} {vs : List (Value α)}
    (hstep : ∀ n ∈ items, ∀ s v rest, step n s = .matched v rest → rest <:+ s)
    (h : readAll step items s = .matched vs rest) : rest <:+ s := by
  induction items generalizing s vs with
  | nil => cases h; exact List.suffix_rfl
  | cons n ns ih =>
      obtain ⟨v, mid, hv, hvs⟩ := Reading.andThen_eq_matched.mp h
      obtain ⟨ws, hws, -⟩ := Reading.map_eq_matched.mp hvs
      exact (ih (fun m hm => hstep m (by simp [hm])) hws).trans (hstep n (by simp) s v mid hv)

theorem readFirst_matched {step : Node α → Reading (Value α)} {alternatives : List (Node α)}
    {rest : Text} {v : Value α} (h : readFirst step alternatives = .matched v rest) :
    ∃ before n after, alternatives = before ++ n :: after ∧
      (∀ m ∈ before, step m = .mismatch) ∧ step n = .matched v rest := by
  induction alternatives with
  | nil => cases h
  | cons n ns ih =>
      rw [readFirst] at h
      cases hs : step n with
      | matched w mid =>
          rw [hs] at h
          exact ⟨[], n, ns, rfl, by simp, by rw [hs]; exact h⟩
      | mismatch =>
          rw [hs] at h
          obtain ⟨before, m, after, rfl, hbefore, hm⟩ := ih h
          exact ⟨n :: before, m, after, rfl, by simpa [hs] using hbefore, hm⟩
      | stuck => rw [hs] at h; cases h

theorem readMany_suffix {step : Text → Reading (Value α)} {room : Nat} {s rest : Text}
    {vs : List (Value α)} (hstep : ∀ s v rest, step s = .matched v rest → rest <:+ s)
    (h : readMany step room s = .matched vs rest) : rest <:+ s := by
  induction room generalizing s vs with
  | zero => cases h; exact List.suffix_rfl
  | succ room ih =>
      rw [readMany] at h
      cases hs : step s with
      | mismatch => rw [hs] at h; cases h; exact List.suffix_rfl
      | stuck => rw [hs] at h; cases h
      | matched v mid =>
          rw [hs] at h
          simp only [] at h
          split at h
          · cases h; exact List.suffix_rfl
          · obtain ⟨ws, hws, -⟩ := Reading.map_eq_matched.mp h
            exact (ih hws).trans (hstep s v mid hs)

theorem readNode_suffix {ctx : Context α} {limit : Nat} : ∀ {node : Node α} {s rest : Text}
    {v : Value α}, readNode ctx limit node s = .matched v rest → rest <:+ s := by
  induction limit with
  | zero => intro node s rest v h; cases h
  | succ limit ih =>
      intro node s rest v h
      cases node with
      | literal t =>
          rw [readNode_literal, readLiteral] at h
          split at h
          · cases h; exact List.drop_suffix _ _
          · cases h
      | range low high =>
          rw [readNode_range] at h
          cases s with
          | nil => cases h
          | cons c cs =>
              rw [readRange] at h
              split at h
              · cases h; exact List.suffix_cons _ _
              · cases h
      | sequence items =>
          rw [readNode_sequence] at h
          obtain ⟨vs, hvs, -⟩ := Reading.map_eq_matched.mp h
          exact readAll_suffix (fun _ _ _ _ _ => ih) hvs
      | choice alternatives =>
          rw [readNode_choice] at h
          obtain ⟨_, n, _, _, _, hn⟩ := readFirst_matched h
          exact ih hn
      | many item =>
          rw [readNode_many] at h
          obtain ⟨vs, hvs, -⟩ := Reading.map_eq_matched.mp h
          exact readMany_suffix (fun _ _ _ => ih) hvs
      | exclusion item forbidden =>
          rw [readNode_exclusion] at h
          obtain ⟨w, mid, hw, hmid⟩ := Reading.andThen_eq_matched.mp h
          split at hmid
          · cases hmid
          · cases hmid; exact ih hw
          · cases hmid
      | capture label item =>
          rw [readNode_capture] at h
          obtain ⟨w, hw, -⟩ := Reading.map_eq_matched.mp h
          exact ih hw
      | action item act =>
          rw [readNode_action] at h
          obtain ⟨w, mid, hw, hmid⟩ := Reading.andThen_eq_matched.mp h
          cases hp : ctx.perform act w with
          | value u => rw [hp] at hmid; cases hmid; exact ih hw
          | raised r =>
              rw [hp, ActionResult.reading] at hmid
              split at hmid <;> cases hmid
          | parse inner t => rw [hp] at hmid; cases hmid
      | placeholder id name =>
          rw [readNode_placeholder] at h
          cases ht : ctx.bindings.target? id with
          | none => rw [ht] at h; cases h
          | some target => rw [ht] at h; exact ih h
      | empty shared => rw [readNode_empty] at h; cases h; exact List.suffix_rfl
      | bare | stray _ | looseLiteral _ | looseRange _ _ => cases h

end Peg
