import Peg.Proofs.Description
import Peg.Workshop

/-!
# What the builders make is sound

A node is sound when it is as the checked builders make it, and so is every node in its
tree. The builders keep this up whatever they are given: of arguments that hold nothing
but plain data and sound nodes they make a sound node, or they refuse, and a refusal can
be written down because such arguments can be shown. A resolver takes sound nodes only, so
the targets are sound as well, and then so is all that a match can come to.

`Workshop.IsReached` is what programs come to that hand the builders what they were given
before, and plain data of their own. Nothing is asked of the order of the operations, nor
that they succeed.
-/

namespace Peg

variable {α : Type} [Named α]

/-! ## Sound nodes -/

/-- A node such as the checked builders make, with all that is in it. -/
def Node.IsSound (n : Node α) : Prop := ∀ m, n.Contains m → m.IsBuilt

theorem Node.IsSound.isBuilt {n : Node α} (h : n.IsSound) : n.IsBuilt := h n .refl

theorem Node.IsSound.part {n p : Node α} (h : n.IsSound) (hp : p ∈ n.parts) : p.IsSound :=
  fun m hm => h m (.head hp hm)

theorem Node.isSound_of_parts {n : Node α} (hn : n.IsBuilt) (hparts : ∀ p ∈ n.parts, p.IsSound) :
    n.IsSound := by
  intro m hm
  rcases Relation.ReflTransGen.cases_head hm with rfl | ⟨p, hp, hpm⟩
  · exact hn
  · exact hparts p hp m hpm

/-- A node whose parts are a single one. -/
theorem Node.isSound_of_part {n p : Node α} (hn : n.IsBuilt) (hparts : n.parts = [p])
    (hp : p.IsSound) : n.IsSound :=
  isSound_of_parts hn fun q hq => by
    rw [hparts, List.mem_singleton] at hq
    rwa [hq]

/-- A node whose parts are two. -/
theorem Node.isSound_of_pair {n p q : Node α} (hn : n.IsBuilt) (hparts : n.parts = [p, q])
    (hp : p.IsSound) (hq : q.IsSound) : n.IsSound :=
  isSound_of_parts hn fun r hr => by
    rw [hparts, List.mem_pair] at hr
    rcases hr with rfl | rfl
    · exact hp
    · exact hq

theorem Node.isSound_nothing : (nothing : Node α).IsSound :=
  isSound_of_parts trivial fun p hp => by cases hp

theorem Node.IsSound.many {n : Node α} (h : n.IsSound) : (Node.many n).IsSound :=
  isSound_of_part trivial rfl h

theorem Node.IsSound.describe {n : Node α} (h : n.IsSound) (isBound : Nat → Bool) (depth : Int) :
    ∃ t, n.describe isBound depth = .ok t := describe_ok isBound n depth h

namespace Bindings

/-- Every target is a sound node. -/
def IsSound (b : Bindings α) : Prop := ∀ id n, b.target? id = some n → n.IsSound

theorem isSound_empty : (empty : Bindings α).IsSound := fun _ _ h => by cases h

theorem IsSound.bind {b : Bindings α} (h : b.IsSound) (id : Nat) {n : Node α} (hn : n.IsSound) :
    (b.bind id n).IsSound := by
  intro other m hm
  rw [target?_bind] at hm
  split at hm
  · cases hm; exact hn
  · exact h other m hm

/-- Whatever is reached from a sound node through sound targets is sound. -/
theorem IsSound.reaches {b : Bindings α} (h : b.IsSound) {node n : Node α} (hnode : node.IsSound)
    (hn : b.Reaches node n) : n.IsSound :=
  hn.induct (P := Node.IsSound) hnode (fun _ hm _ hp => hm.part hp)
    (fun id _ target _ ht => h id target ht)

end Bindings

/-! ## Values that can be shown -/

/-- The value consists of plain data, of functions and of the given nodes, and its integers
can be written down. -/
inductive Value.IsMadeOf (nodes : Node α → Prop) : Value α → Prop
  | null : IsMadeOf nodes .null
  | bool (b : Bool) : IsMadeOf nodes (.bool b)
  | int {i : Int} : i.natAbs < Nat.pow 10 Numeral.maxDigits → IsMadeOf nodes (.int i)
  | float (x : Binary64) : IsMadeOf nodes (.float x)
  | text (t : Text) : IsMadeOf nodes (.text t)
  | list {items : List (Value α)} : (∀ v ∈ items, IsMadeOf nodes v) → IsMadeOf nodes (.list items)
  | tuple {items : List (Value α)} :
    (∀ v ∈ items, IsMadeOf nodes v) → IsMadeOf nodes (.tuple items)
  | dict {entries : List (Value α × Value α)} : (∀ e ∈ entries, IsMadeOf nodes e.1) →
    (∀ e ∈ entries, IsMadeOf nodes e.2) → IsMadeOf nodes (.dict entries)
  | captured {label value : Value α} :
    IsMadeOf nodes label → IsMadeOf nodes value → IsMadeOf nodes (.captured label value)
  | node {n : Node α} : nodes n → IsMadeOf nodes (.node n)
  | action (act : α) : IsMadeOf nodes (.action act)

namespace Value.IsMadeOf

variable {nodes : Node α → Prop}

omit [Named α] in
theorem mono {nodes' : Node α → Prop} {v : Value α} (h : v.IsMadeOf nodes)
    (hnodes : ∀ n, nodes n → nodes' n) : v.IsMadeOf nodes' := by
  induction h with
  | null => exact .null
  | bool b => exact .bool b
  | int hi => exact .int hi
  | float x => exact .float x
  | text t => exact .text t
  | list _ ih => exact .list ih
  | tuple _ ih => exact .tuple ih
  | dict _ _ ihk ihv => exact .dict ihk ihv
  | captured _ _ ihl ihv => exact .captured ihl ihv
  | node hn => exact .node (hnodes _ hn)
  | action act => exact .action act

theorem writeAll_ok {isBound : Nat → Bool} {vs : List (Value α)}
    (h : ∀ v ∈ vs, ∃ t, v.write isBound false = .ok t) :
    ∃ ts, Value.writeAll isBound vs = .ok ts := by
  induction vs with
  | nil => exact ⟨[], by rw [writeAll]⟩
  | cons v vs ih =>
      obtain ⟨t, ht⟩ := h v (by simp)
      obtain ⟨ts, hts⟩ := ih fun u hu => h u (by simp [hu])
      exact ⟨t :: ts, by rw [writeAll, ht, hts]; rfl⟩

theorem writeEntries_ok {isBound : Nat → Bool} {es : List (Value α × Value α)}
    (hk : ∀ e ∈ es, ∃ t, e.1.write isBound false = .ok t)
    (hv : ∀ e ∈ es, ∃ t, e.2.write isBound false = .ok t) :
    ∃ ts, Value.writeEntries isBound es = .ok ts := by
  induction es with
  | nil => exact ⟨[], by rw [writeEntries]⟩
  | cons e es ih =>
      obtain ⟨k, v⟩ := e
      obtain ⟨s, hs⟩ := hk (k, v) (by simp)
      obtain ⟨t, ht⟩ := hv (k, v) (by simp)
      obtain ⟨ts, hts⟩ := ih (fun e he => hk e (by simp [he])) fun e he => hv e (by simp [he])
      exact ⟨_, by rw [writeEntries, hs, ht, hts]; rfl⟩

/-- What is made of plain data and sound nodes can be written down. -/
theorem write_ok {v : Value α} (h : v.IsMadeOf Node.IsSound) (isBound : Nat → Bool) :
    ∀ verbatim, ∃ t, v.write isBound verbatim = .ok t := by
  induction h with
  | null | bool _ | float _ | text _ | action _ =>
      intro verbatim
      rw [write]
      exact ⟨_, rfl⟩
  | int hi => intro verbatim; exact ⟨_, by rw [write, describeInt, if_pos hi]⟩
  | list _ ih | tuple _ ih =>
      intro verbatim
      obtain ⟨ts, hts⟩ := writeAll_ok fun v hv => ih v hv false
      exact ⟨_, by rw [write, hts]; rfl⟩
  | dict _ _ ihk ihv =>
      intro verbatim
      obtain ⟨ts, hts⟩ := writeEntries_ok (fun e he => ihk e he false) fun e he => ihv e he false
      exact ⟨_, by rw [write, hts]; rfl⟩
  | captured _ _ ihl ihv =>
      intro verbatim
      obtain ⟨l, hl⟩ := ihl false
      obtain ⟨t, ht⟩ := ihv false
      exact ⟨_, by rw [write, hl, ht]; rfl⟩
  | node hn =>
      intro verbatim
      obtain ⟨t, ht⟩ := hn.describe isBound 2
      exact ⟨t, by rw [write, ht]⟩

end Value.IsMadeOf

/-- A placeholder whose name can be shown is one of the builders'. -/
theorem isSound_placeholder (id : Nat) {name : Value α} (hname : name.IsMadeOf Node.IsSound) :
    (Node.placeholder id name).IsSound := by
  refine Node.isSound_of_parts (fun isBound => ?_) fun p hp => by cases hp
  obtain ⟨t, ht⟩ := hname.write_ok isBound true
  rw [Node.describe, ht]
  split <;> exact ⟨_, rfl⟩

/-! ## Builders -/

namespace Builder

variable {β γ : Type}

/-- The result of a builder: something with the property, or a refusal. -/
def Gives (P : β → Prop) : Except (Error α) β → Prop
  | .ok x => P x
  | .error e => ∃ cause, e = .build cause

omit [Named α] in
theorem Gives.bind {P : β → Prop} {Q : γ → Prop} {d : Except (Error α) β}
    {next : β → Except (Error α) γ} (hd : Gives P d) (hnext : ∀ x, P x → Gives Q (next x)) :
    Gives Q (d >>= next) := by
  cases d with
  | ok x => exact hnext x hd
  | error e => exact hd

variable {isBound : Nat → Bool} {v w : Value α} {vs : List (Value α)}

theorem refuse_gives {P : β → Prop} (hv : v.IsMadeOf Node.IsSound) (cause : Text → BuildError) :
    Gives P (refuse isBound v cause) := by
  obtain ⟨t, ht⟩ := hv.write_ok isBound false
  rw [refuse, Value.render, ht]
  exact ⟨_, rfl⟩

theorem node_gives (role : Role) (hv : v.IsMadeOf Node.IsSound) :
    Gives Node.IsSound (node isBound role v) := by
  unfold node
  split
  · cases hv with
    | node hn => exact hn
  · exact refuse_gives hv _

theorem nodes_gives (role : Role) (hvs : ∀ v ∈ vs, v.IsMadeOf Node.IsSound) :
    Gives (fun ns => ∀ n ∈ ns, n.IsSound) (nodes isBound role vs) := by
  induction vs with
  | nil => exact fun n hn => by cases hn
  | cons v vs ih =>
      rw [nodes]
      refine (node_gives role (hvs v (by simp))).bind fun n hn => ?_
      refine (ih fun w hw => hvs w (by simp [hw])).bind fun ns hns => ?_
      intro m hm
      rcases List.mem_cons.mp hm with rfl | hm
      · exact hn
      · exact hns m hm

theorem text_gives (cause : Text → BuildError) (hv : v.IsMadeOf Node.IsSound) :
    Gives (fun _ => True) (text isBound cause v) := by
  unfold text
  split
  · exact trivial
  · exact refuse_gives hv _

theorem texts_gives (cause : Text → BuildError) (hvs : ∀ v ∈ vs, v.IsMadeOf Node.IsSound) :
    Gives (fun _ => True) (vs.mapM (text isBound cause)) := by
  induction vs with
  | nil => exact trivial
  | cons v vs ih =>
      rw [List.mapM_cons]
      exact (text_gives cause (hvs v (by simp))).bind fun _ _ =>
        (ih fun w hw => hvs w (by simp [hw])).bind fun _ _ => trivial

theorem character_gives (cause : Text → BuildError) (hv : v.IsMadeOf Node.IsSound) :
    Gives (fun _ => True) (character isBound cause v) := by
  unfold character
  split
  · exact trivial
  · exact refuse_gives hv _

theorem count_gives (hv : v.IsMadeOf Node.IsSound) :
    Gives (fun k : Nat => v = .int k) (count isBound v) := by
  unfold count
  split
  · exact rfl
  · exact refuse_gives hv _

omit [Named α] in
/-- The members of a list or tuple are as good as the list or tuple. -/
theorem isMadeOf_flattened {nodes : Node α → Prop} (hvs : ∀ v ∈ vs, v.IsMadeOf nodes) :
    ∀ v ∈ flattened vs, v.IsMadeOf nodes := by
  have happend : ∀ items rest : List (Value α), (∀ v ∈ items, v.IsMadeOf nodes) →
      (∀ v ∈ rest, v.IsMadeOf nodes) → ∀ v ∈ items ++ rest, v.IsMadeOf nodes :=
    fun items rest hitems hrest v hv => (List.mem_append.mp hv).elim (hitems v) (hrest v)
  fun_induction flattened vs with
  | case1 => exact fun v hv => by cases hv
  | case2 items vs ih =>
      refine happend _ _ ?_ (ih fun w hw => hvs w (by simp [hw]))
      cases hvs (.list items) (by simp) with
      | list h => exact h
  | case3 items vs ih =>
      refine happend _ _ ?_ (ih fun w hw => hvs w (by simp [hw]))
      cases hvs (.tuple items) (by simp) with
      | tuple h => exact h
  | case4 v vs _ _ ih =>
      exact happend [v] _ (fun w hw => hvs w (by simp_all)) (ih fun w hw => hvs w (by simp [hw]))

variable {item : Value α}

/-- What a call asks of its arguments: they can be shown, and a number of repetitions is
not so large that there is no room for the node. -/
structure Call.IsAdmissible (nodes : Node α → Prop) (call : Call α) : Prop where
  arguments : ∀ v ∈ call.arguments, v.IsMadeOf nodes
  count : ∀ item (k : Nat), call = .exactly item (.int k) → k < Fault.roomLimit

omit [Named α] in
theorem Call.IsAdmissible.mono {nodes nodes' : Node α → Prop} {call : Call α}
    (h : call.IsAdmissible nodes) (hnodes : ∀ n, nodes n → nodes' n) :
    call.IsAdmissible nodes' :=
  ⟨fun v hv => (h.arguments v hv).mono hnodes, h.count⟩

theorem charRange_gives {low high : Value α} (hlow : low.IsMadeOf Node.IsSound)
    (hhigh : high.IsMadeOf Node.IsSound) : Gives Node.IsSound (charRange isBound low high) := by
  rw [charRange]
  refine (character_gives _ hlow).bind fun l _ => ?_
  refine (character_gives _ hhigh).bind fun r _ => ?_
  split
  · next hle =>
      have hbounds : (0 : Int) ≤ l.val ∧ (l.val : Int) ≤ r.val ∧ (r.val : Int) < 0x110000 := by
        have hr := r.isLt
        have hval : l.val ≤ r.val := hle
        omega
      exact Node.isSound_of_parts hbounds fun p hp => by cases hp
  · exact ⟨_, rfl⟩

theorem exactly_gives {times : Value α} (hitem : item.IsMadeOf Node.IsSound)
    (htimes : times.IsMadeOf Node.IsSound)
    (hroom : ∀ k : Nat, times = .int k → k < Fault.roomLimit) :
    Gives Node.IsSound (exactly isBound item times) := by
  rw [exactly]
  refine (node_gives _ hitem).bind fun n hn => ?_
  refine (count_gives htimes).bind fun k hk => ?_
  have hlimits : Fault.roomLimit ≤ Fault.indexLimit := by decide
  have hlt := hroom k hk
  rw [Fault.ofLength?, if_neg (by omega), if_neg (by omega)]
  refine Node.isSound_of_parts trivial fun p hp => ?_
  obtain ⟨-, rfl⟩ := List.mem_replicate.mp hp
  exact hn

/-- A call of a builder gives a sound node, or refuses. -/
theorem Call.apply_gives (isBound : Nat → Bool) {call : Call α}
    (h : call.IsAdmissible Node.IsSound) : Gives Node.IsSound (call.apply isBound) := by
  have hsound : ∀ n : Node α, n.IsBuilt → (∀ p ∈ n.parts, p.IsSound) →
      Gives Node.IsSound (.ok n : Except (Error α) (Node α)) := fun n => Node.isSound_of_parts
  have hargs := h.arguments
  cases call with
  | literal t =>
      exact (text_gives _ (hargs t (by simp [arguments]))).bind fun t _ =>
        hsound _ trivial fun p hp => by cases hp
  | literalChoice ts =>
      refine (texts_gives _ hargs).bind fun texts _ => hsound _ trivial fun p hp => ?_
      obtain ⟨t, -, rfl⟩ := List.mem_map.mp hp
      exact Node.isSound_of_parts trivial fun q hq => by cases hq
  | charRange low high =>
      exact charRange_gives (hargs low (by simp [arguments])) (hargs high (by simp [arguments]))
  | sequence items =>
      exact (nodes_gives _ hargs).bind fun ns hns => hsound _ trivial hns
  | choice alternatives =>
      exact (nodes_gives _ (isMadeOf_flattened hargs)).bind fun ns hns => hsound _ trivial hns
  | optional item =>
      exact (node_gives _ (hargs item (by simp [arguments]))).bind fun n hn =>
        Node.isSound_of_pair trivial rfl hn Node.isSound_nothing
  | many item =>
      exact (node_gives _ (hargs item (by simp [arguments]))).bind fun n hn => hn.many
  | oneOrMore item =>
      exact (node_gives _ (hargs item (by simp [arguments]))).bind fun n hn =>
        Node.isSound_of_pair trivial rfl hn hn.many
  | exactly item times =>
      exact exactly_gives (hargs item (by simp [arguments])) (hargs times (by simp [arguments]))
        fun k hk => h.count item k (by rw [hk])
  | alternating item separator =>
      refine (node_gives _ (hargs item (by simp [arguments]))).bind fun n hn => ?_
      refine (node_gives _ (hargs separator (by simp [arguments]))).bind fun s hs => ?_
      have hpair : (Node.sequence [s, n]).IsSound := Node.isSound_of_pair trivial rfl hs hn
      exact Node.isSound_of_pair trivial rfl hn hpair.many
  | capture label item =>
      exact (text_gives _ (hargs label (by simp [arguments]))).bind fun l _ =>
        (node_gives _ (hargs item (by simp [arguments]))).bind fun n hn =>
          Node.isSound_of_part ⟨l, rfl⟩ rfl hn
  | exclusion base forbidden =>
      exact (node_gives _ (hargs base (by simp [arguments]))).bind fun b hb =>
        (node_gives _ (hargs forbidden (by simp [arguments]))).bind fun f hf =>
          Node.isSound_of_pair trivial rfl hb hf
  | withAction item act =>
      have hitem := hargs item (by simp [arguments])
      show Gives Node.IsSound (Builder.withAction isBound item act)
      unfold Builder.withAction
      split
      · exact (node_gives _ hitem).bind fun n hn => Node.isSound_of_part trivial rfl hn
      · exact refuse_gives (hargs act (by simp [arguments])) _

end Builder

/-! ## Resolvers -/

section Resolvers

variable {b : Bindings α} {id : Nat} {name target : Value α}

/-- A resolver of sound things refuses what is no node, complains when its placeholder is
bound, and binds it to the node otherwise. -/
theorem resolve_cases (hplaceholder : (Node.placeholder id name).IsSound)
    (htarget : target.IsMadeOf Node.IsSound) :
    (∃ cause, resolve b id name target = (b, .error (.build cause))) ∨
    (b.isBound id = true ∧ ∃ n shown, target = .node n ∧
      resolve b id name target = (b, .error (.alreadyResolved shown))) ∨
    (b.isBound id = false ∧ ∃ n event, target = .node n ∧ n.IsSound ∧
      resolve b id name target = (b.bind id n, .ok event)) := by
  by_cases hnode : ∃ n, target = .node n
  · obtain ⟨n, rfl⟩ := hnode
    have hn : n.IsSound := by
      cases htarget with
      | node hn => exact hn
    right
    cases hbound : b.isBound id with
    | true =>
        obtain ⟨shown, hshown⟩ := hplaceholder.describe b.isBound Node.usualDepth
        exact .inl ⟨rfl, n, shown, rfl, by
          simp only [resolve, Builder.node, hbound, hshown, if_true]⟩
    | false =>
        obtain ⟨shown, hshown⟩ := hplaceholder.describe (b.bind id n).isBound Node.usualDepth
        obtain ⟨t, ht⟩ := hn.describe (b.bind id n).isBound 1
        exact .inr ⟨rfl, n, .resolved shown t, rfl, hn, by
          simp only [resolve, Builder.node, hbound, hshown, ht]; rfl⟩
  · left
    have hgives : Builder.Gives Node.IsSound (Builder.node b.isBound .recursionTarget target) :=
      Builder.node_gives _ htarget
    cases hr : Builder.node b.isBound .recursionTarget target with
    | ok n =>
        unfold Builder.node at hr
        split at hr
        · exact absurd ⟨_, rfl⟩ hnode
        · next hne =>
          obtain ⟨t, ht⟩ := htarget.write_ok b.isBound false
          rw [refuse, Value.render, ht] at hr
          cases hr
    | error e =>
        rw [hr] at hgives
        obtain ⟨cause, rfl⟩ := hgives
        exact ⟨cause, by simp only [resolve, hr]⟩

end Resolvers

/-! ## Workshops -/

/-- An operation that a program can come to: what it hands over is plain data, or was given
to it before. -/
def Operation.IsAdmissible (w : Workshop α) : Operation α → Prop
  | .build call => call.IsAdmissible (· ∈ w.nodes)
  | .declare name => name.IsMadeOf (· ∈ w.nodes)
  | .resolve id name target =>
    .placeholder id name ∈ w.nodes ∧ target.IsMadeOf (· ∈ w.nodes)
  | .attempt _ node _ pos => node ∈ w.nodes ∧ 0 ≤ pos
  | .parse _ node _ => node ∈ w.nodes
  | .describe node _ => node ∈ w.nodes

namespace Workshop

/-- What a program can come to. -/
inductive IsReached : Workshop α → Prop
  | new (perform : α → Value α → ActionResult α) : IsReached (new perform)
  | step {w : Workshop α} (op : Operation α) :
    IsReached w → op.IsAdmissible w → IsReached (w.step op).1

/-- All that was made so far is sound. -/
structure IsSound (w : Workshop α) : Prop where
  nodes : ∀ n ∈ w.nodes, n.IsSound
  bindings : w.context.bindings.IsSound

theorem IsSound.receive {w : Workshop α} (h : w.IsSound) {n : Node α} (hn : n.IsSound) :
    (w.receive n).IsSound where
  nodes m hm := by
    rcases List.mem_cons.mp hm with rfl | hm
    · exact hn
    · exact h.nodes m hm
  bindings := h.bindings

theorem IsSound.step {w : Workshop α} (h : w.IsSound) {op : Operation α}
    (hop : op.IsAdmissible w) : (w.step op).1.IsSound := by
  cases op with
  | build call =>
      have hgives := Builder.Call.apply_gives w.isBound (hop.mono h.nodes)
      rw [Workshop.step]
      cases hr : call.apply w.isBound with
      | ok n => rw [hr] at hgives; exact h.receive hgives
      | error e => exact h
  | declare name =>
      have hn := h.receive (isSound_placeholder w.nextNumber (hop.mono h.nodes))
      exact ⟨hn.nodes, hn.bindings⟩
  | resolve id name target =>
      refine ⟨h.nodes, ?_⟩
      show (Peg.resolve w.context.bindings id name target).1.IsSound
      rcases resolve_cases (b := w.context.bindings) (h.nodes _ hop.1) (hop.2.mono h.nodes) with
        ⟨_, hr⟩ | ⟨_, _, _, _, hr⟩ | ⟨_, n, event, _, hn, hr⟩
      · rw [hr]; exact h.bindings
      · rw [hr]; exact h.bindings
      · rw [hr]; exact h.bindings.bind id hn
  | attempt _ _ _ _ | parse _ _ _ | describe _ _ => exact h

theorem IsReached.isSound {w : Workshop α} (h : w.IsReached) : w.IsSound := by
  induction h with
  | new perform => exact ⟨fun _ hn => absurd hn List.not_mem_nil, Bindings.isSound_empty⟩
  | step op _ hop ih => exact ih.step hop

/-- Whatever a match of a node of a program comes to is as the builders make it. -/
theorem IsReached.isBuilt {w : Workshop α} (h : w.IsReached) {node n : Node α}
    (hnode : node ∈ w.nodes) (hn : w.context.bindings.Reaches node n) : n.IsBuilt :=
  (h.isSound.bindings.reaches (h.isSound.nodes node hnode) hn).isBuilt

end Workshop

end Peg
