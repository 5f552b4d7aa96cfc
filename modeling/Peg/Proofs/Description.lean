import Peg.Describe
import Peg.Proofs.Graph

/-!
# Descriptions of what the builders make

A description can have a fault of its own, and its faults are of a few sorts: none of
them says anything about the match that asked for it. What the checked builders make
has no such fault. Their ranges are bounded by code points, every part is a node, and
a placeholder has a name that can be written, or none.
-/

namespace Peg

variable {α : Type}

/-! ## Faults of descriptions -/

/-- The faults that a description can have. -/
def Fault.IsDescriptive : Fault → Prop
  | .hugeInteger | .hugeCodePoint | .notACodePoint | .notAnInteger _ | .notANode _ => True
  | _ => False

/-- A description, unless it has one of its faults. -/
def Described {β : Type} (d : Except Fault β) : Prop := ∀ f, d = .error f → f.IsDescriptive

theorem Described.ok {β : Type} (x : β) : Described (.ok x) := fun f h => by cases h

theorem Described.error {β : Type} {f : Fault} (h : f.IsDescriptive) :
    Described (.error f : Except Fault β) := fun f' h' => by cases h'; exact h

theorem Described.bind {β γ : Type} {d : Except Fault β} {next : β → Except Fault γ}
    (hd : Described d) (hnext : ∀ x, Described (next x)) : Described (d >>= next) := by
  cases d with
  | error f => exact .error (hd f rfl)
  | ok x => exact hnext x

theorem described_bound (bound : Int) : Described (describeBound bound) := by
  unfold describeBound
  split
  · exact .error trivial
  · split
    · exact .ok _
    · exact .error trivial

theorem described_range (low high : Int) : Described (describeRange low high) :=
  .bind (described_bound low) fun _ => .bind (described_bound high) fun _ => .ok _

variable [Named α]

theorem described_asBound (v : Value α) : Described v.asBound := by
  unfold Value.asBound
  split
  · exact .ok _
  · exact .ok _
  · exact .error trivial

theorem described_looseRange (low high : Value α) : Described (describeLooseRange low high) :=
  .bind (described_asBound low) fun _ => .bind (described_bound _) fun _ =>
    .bind (described_asBound high) fun _ => .bind (described_bound _) fun _ => .ok _

mutual

theorem described_write (isBound : Nat → Bool) (verbatim : Bool) :
    ∀ v : Value α, Described (v.write isBound verbatim)
  | .null | .bool _ | .float _ | .text _ | .action _ => by
      rw [Value.write]; exact .ok _
  | .int i => by
      rw [Value.write, describeInt]
      split
      · exact .ok _
      · exact .error trivial
  | .list items => by
      rw [Value.write]
      exact .bind (described_writeAll isBound items) fun _ => .ok _
  | .tuple items => by
      rw [Value.write]
      exact .bind (described_writeAll isBound items) fun _ => .ok _
  | .dict entries => by
      rw [Value.write]
      exact .bind (described_writeEntries isBound entries) fun _ => .ok _
  | .captured label value => by
      rw [Value.write]
      exact .bind (described_write isBound false label) fun _ =>
        .bind (described_write isBound false value) fun _ => .ok _
  | .node n => by
      rw [Value.write]
      exact described_node isBound n 2
  | .grammar _ name => by
      rw [Value.write]
      exact .bind (described_write isBound false name) fun _ => .ok _

theorem described_writeAll (isBound : Nat → Bool) :
    ∀ vs : List (Value α), Described (Value.writeAll isBound vs)
  | [] => by rw [Value.writeAll]; exact .ok _
  | v :: vs => by
      rw [Value.writeAll]
      exact .bind (described_write isBound false v) fun _ =>
        .bind (described_writeAll isBound vs) fun _ => .ok _

theorem described_writeEntries (isBound : Nat → Bool) :
    ∀ es : List (Value α × Value α), Described (Value.writeEntries isBound es)
  | [] => by rw [Value.writeEntries]; exact .ok _
  | (k, v) :: es => by
      rw [Value.writeEntries]
      exact .bind (described_write isBound false k) fun _ =>
        .bind (described_write isBound false v) fun _ =>
          .bind (described_writeEntries isBound es) fun _ => .ok _

theorem described_node (isBound : Nat → Bool) :
    ∀ (n : Node α) (depth : Int), Described (n.describe isBound depth)
  | .literal _, _ | .empty _, _ => by rw [Node.describe]; exact .ok _
  | .range low high, _ => by rw [Node.describe]; exact described_range low high
  | .bare, _ => by rw [Node.describe]; exact .ok _
  | .placeholder _ name, _ => by
      rw [Node.describe]
      split
      · exact .bind (described_write isBound true name) fun _ => .ok _
      · exact .ok _
  | .stray _, _ => by rw [Node.describe]; exact .error trivial
  | .looseLiteral text, _ => by
      rw [Node.describe]
      exact .bind (described_write isBound false text) fun _ => .ok _
  | .looseRange low high, _ => by rw [Node.describe]; exact described_looseRange low high
  | .sequence items, depth => by
      rw [Node.describe]
      split
      · exact .ok _
      · exact .bind (described_nodes isBound items _) fun _ => .ok _
  | .choice alternatives, depth => by
      rw [Node.describe]
      split
      · exact .ok _
      · exact .bind (described_nodes isBound alternatives _) fun _ => .ok _
  | .many item, depth => by
      rw [Node.describe]
      split
      · exact .ok _
      · exact .bind (described_node isBound item _) fun _ => .ok _
  | .exclusion item forbidden, depth => by
      rw [Node.describe]
      split
      · exact .ok _
      · exact .bind (described_node isBound item _) fun _ =>
          .bind (described_node isBound forbidden _) fun _ => .ok _
  | .capture label item, depth => by
      rw [Node.describe]
      split
      · exact .ok _
      · exact .bind (described_write isBound false label) fun _ =>
          .bind (described_node isBound item _) fun _ => .ok _
  | .action item _, depth => by
      rw [Node.describe]
      split
      · exact .ok _
      · exact .bind (described_node isBound item _) fun _ => .ok _

theorem described_nodes (isBound : Nat → Bool) :
    ∀ (ns : List (Node α)) (depth : Int), Described (Node.describeAll isBound ns depth)
  | [], _ => by rw [Node.describeAll]; exact .ok _
  | n :: ns, depth => by
      rw [Node.describeAll]
      exact .bind (described_node isBound n depth) fun _ =>
        .bind (described_nodes isBound ns depth) fun _ => .ok _

end

/-! ## Nodes of the builders -/

/-- A node such as the checked builders make, as far as the node itself shows: its
parts are looked at on their own. -/
def Node.IsBuilt : Node α → Prop
  | .range low high => 0 ≤ low ∧ low ≤ high ∧ high < 0x110000
  | .capture label _ => ∃ t, label = .text t
  | .placeholder id name =>
    ∀ isBound : Nat → Bool, ∃ t, (Node.placeholder id name).describe isBound 0 = .ok t
  | .bare | .stray _ | .looseLiteral _ | .looseRange .. => False
  | _ => True

theorem describeBound_ok {bound : Int} (h₀ : 0 ≤ bound) (h₁ : bound < 0x110000) :
    ∃ t, describeBound bound = .ok t := by
  have hlimit : ¬ (bound < -codeLimit ∨ codeLimit ≤ bound) := by
    simp only [codeLimit]
    omega
  rw [describeBound, if_neg hlimit, CodePoint.ofInt?, dif_pos ⟨h₀, h₁⟩]
  exact ⟨_, rfl⟩

theorem describeRange_ok {low high : Int} (h : (Node.range low high : Node α).IsBuilt) :
    ∃ t, describeRange low high = .ok t := by
  obtain ⟨hlow, hle, hhigh⟩ := h
  obtain ⟨l, hl⟩ := describeBound_ok hlow (by omega)
  obtain ⟨r, hr⟩ := describeBound_ok (by omega : 0 ≤ high) hhigh
  rw [describeRange, hl, hr]
  exact ⟨_, rfl⟩

mutual

/-- A tree of nodes of the builders has a description, whatever is bound. -/
theorem describe_ok (isBound : Nat → Bool) : ∀ (n : Node α) (depth : Int),
    (∀ m, n.Contains m → m.IsBuilt) → ∃ t, n.describe isBound depth = .ok t
  | .literal _, _, _ | .empty _, _, _ => by rw [Node.describe]; exact ⟨_, rfl⟩
  | .range low high, _, h => by rw [Node.describe]; exact describeRange_ok (h _ .refl)
  | .placeholder id name, _, h => by
      have hn := h _ .refl isBound
      rw [Node.describe] at hn ⊢
      exact hn
  | .bare, _, h | .stray _, _, h | .looseLiteral _, _, h | .looseRange _ _, _, h =>
      (h _ .refl).elim
  | .sequence items, depth, h => by
      obtain ⟨ts, hts⟩ := describeAll_ok isBound items (depth - 1) fun n hn m hm =>
        h m (.head hn hm)
      rw [Node.describe, hts]
      split <;> exact ⟨_, rfl⟩
  | .choice alternatives, depth, h => by
      obtain ⟨ts, hts⟩ := describeAll_ok isBound alternatives (depth - 1) fun n hn m hm =>
        h m (.head hn hm)
      rw [Node.describe, hts]
      split <;> exact ⟨_, rfl⟩
  | .many item, depth, h => by
      obtain ⟨t, ht⟩ := describe_ok isBound item (depth - 1) fun m hm =>
        h m (.head (by simp [Node.parts]) hm)
      rw [Node.describe, ht]
      split <;> exact ⟨_, rfl⟩
  | .exclusion item forbidden, depth, h => by
      obtain ⟨t, ht⟩ := describe_ok isBound item (depth - 1) fun m hm =>
        h m (.head (by simp [Node.parts]) hm)
      obtain ⟨f, hf⟩ := describe_ok isBound forbidden (depth - 1) fun m hm =>
        h m (.head (by simp [Node.parts]) hm)
      rw [Node.describe, ht, hf]
      split <;> exact ⟨_, rfl⟩
  | .capture label item, depth, h => by
      obtain ⟨l, rfl⟩ : ∃ l, label = .text l := h _ .refl
      obtain ⟨t, ht⟩ := describe_ok isBound item (depth - 1) fun m hm =>
        h m (.head (by simp [Node.parts]) hm)
      rw [Node.describe, ht, Value.write]
      split <;> exact ⟨_, rfl⟩
  | .action item act, depth, h => by
      obtain ⟨t, ht⟩ := describe_ok isBound item (depth - 1) fun m hm =>
        h m (.head (by simp [Node.parts]) hm)
      rw [Node.describe, ht]
      split <;> exact ⟨_, rfl⟩

theorem describeAll_ok (isBound : Nat → Bool) : ∀ (ns : List (Node α)) (depth : Int),
    (∀ n ∈ ns, ∀ m, n.Contains m → m.IsBuilt) →
    ∃ ts, Node.describeAll isBound ns depth = .ok ts
  | [], _, _ => by rw [Node.describeAll]; exact ⟨_, rfl⟩
  | n :: ns, depth, h => by
      obtain ⟨t, ht⟩ := describe_ok isBound n depth (h n (by simp))
      obtain ⟨ts, hts⟩ := describeAll_ok isBound ns depth fun m hm => h m (by simp [hm])
      rw [Node.describeAll, ht, hts]
      exact ⟨_, rfl⟩

end

/-- A placeholder is one of the builders' when its name is a text or there is none. -/
theorem isBuilt_placeholder (id : Nat) {name : Value α}
    (hname : name = .null ∨ ∃ t, name = .text t) : (Node.placeholder id name).IsBuilt := by
  intro isBound
  have hwrite : ∃ t, name.write isBound true = .ok t := by
    rcases hname with rfl | ⟨t, rfl⟩
    · exact ⟨_, Value.write.eq_1 _ _⟩
    · exact ⟨t, by rw [Value.write, if_pos rfl]⟩
  obtain ⟨t, ht⟩ := hwrite
  rw [Node.describe, ht]
  split <;> exact ⟨_, rfl⟩

end Peg
