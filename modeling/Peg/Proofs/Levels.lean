import Mathlib.Data.List.Forall2
import Peg.Proofs.Safety

/-!
# What a description depends on

A description to some depth says of every node above that depth what can be seen of the
node without its parts, and of every node at that depth what its type is. Nothing else goes
into it: neither what lies deeper, nor what a placeholder is bound to. The messages that
show nodes depend on no more.

What can be seen of a node without its parts is its `Face`. A place in the tree of a node
is a path, which says of which part to go on at each level; the trees of two nodes are
compared place by place, and so are described side by side by induction on the depth. The
leaves of a grammar are shown in full however little depth there is, so at the last level
their whole faces are compared, while those of composite nodes are `cut`.
-/

namespace Peg

variable {α : Type} [Named α]

/-! ## Faces -/

/-- The name of a placeholder as it is shown: one without a name is shown by a text that
stands for its address. -/
def Value.shownName (isBound : Nat → Bool) (name : Value α) : Except Fault Text :=
  if name.isPresent then name.write isBound true else .ok anyAddress

/-- What can be seen of a node that the builders make, without its parts. -/
inductive Face where
  | literal (t : Text)
  | range (low high : Int)
  | empty
  | placeholder (shown : Except Fault Text) (bound : Bool)
  /-- A node with so many parts. Only a capture has a label and only an action has the name
  of a function. -/
  | composite (typeName : String) (label function : Option Text) (parts : Nat)

namespace Face

/-- What is left of a face where the depth ends. -/
def cut : Face → Face
  | composite typeName .. => composite typeName none none 0
  | f => f

/-- How many parts a node has. -/
def parts : Face → Nat
  | composite _ _ _ parts => parts
  | _ => 0

/-- The description of a node by its face and the descriptions of its parts, which are not
looked at when there is no depth left. -/
def describe (texts : Except Fault (List Text)) (depth : Int) : Face → Except Fault Text
  | literal t => .ok (construct "Literal" [t.quoted])
  | range low high => describeRange low high
  | empty => .ok "Empty"
  | placeholder shown bound => do
    let t ← shown
    return construct "Recursion" (if bound then [t] else [t, "unresolved"])
  | composite typeName label function _ =>
    if depth ≤ 0 then .ok (typeName ++ "(...)") else do
      let ts ← texts
      return construct typeName (label.toList.map Text.quoted ++ ts ++ function.toList)

/-- Where the depth ends, a cut face is enough. -/
theorem describe_eq_of_cut_eq {f f' : Face} (h : f.cut = f'.cut) {depth : Int} (hdepth : depth ≤ 0)
    (texts texts' : Except Fault (List Text)) :
    f.describe texts depth = f'.describe texts' depth := by
  have hcut : ∀ (g : Face) (ts : Except Fault (List Text)),
      g.describe ts depth = g.cut.describe (.ok []) depth := by
    intro g ts
    cases g with
    | literal _ | range _ _ | empty | placeholder _ _ => rfl
    | composite typeName label function parts => simp only [cut, describe, if_pos hdepth]
  rw [hcut f texts, hcut f' texts', h]

end Face

namespace Node

/-- What can be seen of a node without its parts. -/
def face (isBound : Nat → Bool) : Node α → Face
  | literal t => .literal t
  | range low high => .range low high
  | empty _ => .empty
  | placeholder id name => .placeholder (name.shownName isBound) (isBound id)
  | capture label _ => .composite "Capture" label.text? none 1
  | action _ act => .composite "Action" none (some (Named.name act)) 1
  | n => .composite n.typeName none none n.parts.length

theorem parts_face (isBound : Nat → Bool) (n : Node α) :
    (n.face isBound).parts = n.parts.length := by
  cases n <;> rfl

theorem describeAll_eq_mapM (isBound : Nat → Bool) (ns : List (Node α)) (depth : Int) :
    describeAll isBound ns depth = ns.mapM fun n => n.describe isBound depth := by
  induction ns with
  | nil => rw [describeAll]; rfl
  | cons n ns ih => rw [describeAll, ih, List.mapM_cons]

/-- A node of the builders is described by its face and by its parts, one level lower. -/
theorem describe_eq_face {n : Node α} (hn : n.IsBuilt) (isBound : Nat → Bool) (depth : Int) :
    n.describe isBound depth =
      (n.face isBound).describe (describeAll isBound n.parts (depth - 1)) depth := by
  cases n with
  | literal _ | range _ _ | empty _ => rw [describe]; rfl
  | placeholder id name =>
      rw [describe, face, Face.describe, Value.shownName]
      cases name.isPresent <;> rfl
  | bare | stray _ | looseLiteral _ | looseRange _ _ => exact hn.elim
  | capture label item =>
      obtain ⟨t, rfl⟩ := hn
      by_cases hdepth : depth ≤ 0
      · simp only [describe, face, Face.describe, if_pos hdepth]
        rfl
      · simp only [describe, face, Face.describe, if_neg hdepth, parts, describeAll]
        cases item.describe isBound (depth - 1) <;> rfl
  | sequence _ | choice _ | many _ | exclusion _ _ | action _ _ =>
      by_cases hdepth : depth ≤ 0
      · simp only [describe, face, Face.describe, if_pos hdepth, typeName]
        rfl
      -- How many parts there are shows here, so both sides describe them one after the other.
      · simp only [describe, face, Face.describe, if_neg hdepth, typeName, parts,
          describeAll_eq_mapM, List.mapM_cons, List.mapM_nil, bind_pure_comp, Functor.map_map,
          map_bind, map_pure, Option.toList, List.map, List.append_nil, List.nil_append,
          List.cons_append]

/-! ## Levels -/

/-- The node at a place in the tree of a node: a path says of which part to go on at each
level, counted from zero. -/
def at? : Node α → List Nat → Option (Node α)
  | n, [] => some n
  | n, i :: path => n.parts[i]? >>= fun p => p.at? path

/-- Two nodes, each among bindings of its own, that show the same to a depth: at the same
place above the depth they have the same face, and at the same place where the depth ends
the same cut face. A negative depth ends where zero does, at the nodes themselves. -/
structure AlikeTo (b b' : Bindings α) (depth : Int) (n n' : Node α) : Prop where
  above : ∀ (path : List Nat) (m m' : Node α), (path.length : Int) < depth →
    n.at? path = some m → n'.at? path = some m' → m.face b.isBound = m'.face b'.isBound
  level : ∀ (path : List Nat) (m m' : Node α), (path.length : Int) = max depth 0 →
    n.at? path = some m → n'.at? path = some m' →
    (m.face b.isBound).cut = (m'.face b'.isBound).cut

section AlikeTo

variable {b b' : Bindings α} {depth : Int} {n n' : Node α}

omit [Named α] in
theorem at?_cons_eq_some {i : Nat} {path : List Nat} {m : Node α} :
    n.at? (i :: path) = some m ↔ ∃ p, n.parts[i]? = some p ∧ p.at? path = some m :=
  Option.bind_eq_some_iff

theorem alikeTo_iff_of_nonpos (hdepth : depth ≤ 0) :
    AlikeTo b b' depth n n' ↔ (n.face b.isBound).cut = (n'.face b'.isBound).cut := by
  refine ⟨fun h => h.level [] n n' (max_eq_right hdepth).symm rfl rfl, fun hcut => ⟨?_, ?_⟩⟩
  · intro path m m' hlt
    omega
  · rintro (_ | ⟨i, path⟩) m m' heq hm hm'
    · cases hm
      cases hm'
      exact hcut
    · rw [List.length_cons] at heq
      omega

/-- Where there is depth left, nodes are alike when they have the same face and their parts
are alike one level lower. -/
theorem alikeTo_iff_of_pos (hdepth : 0 < depth) :
    AlikeTo b b' depth n n' ↔ n.face b.isBound = n'.face b'.isBound ∧
      ∀ (i : Nat) (p p' : Node α), n.parts[i]? = some p → n'.parts[i]? = some p' →
        AlikeTo b b' (depth - 1) p p' := by
  constructor
  · refine fun h => ⟨h.above [] n n' hdepth rfl rfl, fun i p p' hp hp' => ⟨?_, ?_⟩⟩
    · intro path m m' hlt hm hm'
      exact h.above (i :: path) m m' (by rw [List.length_cons]; omega)
        (at?_cons_eq_some.mpr ⟨p, hp, hm⟩) (at?_cons_eq_some.mpr ⟨p', hp', hm'⟩)
    · intro path m m' heq hm hm'
      exact h.level (i :: path) m m' (by rw [List.length_cons]; omega)
        (at?_cons_eq_some.mpr ⟨p, hp, hm⟩) (at?_cons_eq_some.mpr ⟨p', hp', hm'⟩)
  · rintro ⟨hface, hparts⟩
    constructor
    · rintro (_ | ⟨i, path⟩) m m' hlt hm hm'
      · cases hm
        cases hm'
        exact hface
      · obtain ⟨p, hp, hm⟩ := at?_cons_eq_some.mp hm
        obtain ⟨p', hp', hm'⟩ := at?_cons_eq_some.mp hm'
        exact (hparts i p p' hp hp').above path m m' (by rw [List.length_cons] at hlt; omega) hm hm'
    · rintro (_ | ⟨i, path⟩) m m' heq hm hm'
      · rw [List.length_nil] at heq
        omega
      · obtain ⟨p, hp, hm⟩ := at?_cons_eq_some.mp hm
        obtain ⟨p', hp', hm'⟩ := at?_cons_eq_some.mp hm'
        exact (hparts i p p' hp hp').level path m m' (by rw [List.length_cons] at heq; omega) hm hm'

end AlikeTo

end Node

/-! ## Descriptions -/

theorem describeAll_congr {isBound isBound' : Nat → Bool} {depth : Int} {ns ns' : List (Node α)}
    (h : List.Forall₂ (fun n n' => n.describe isBound depth = n'.describe isBound' depth) ns ns') :
    Node.describeAll isBound ns depth = Node.describeAll isBound' ns' depth := by
  induction h with
  | nil => simp only [Node.describeAll]
  | cons hn _ ih => simp only [Node.describeAll, hn, ih]

/-- Nodes that show the same to a depth are described alike. -/
theorem describe_eq_of_alikeTo {b b' : Bindings α} {n n' : Node α} {depth : Int}
    (hn : n.IsSound) (hn' : n'.IsSound) (h : Node.AlikeTo b b' depth n n') :
    n.describe b.isBound depth = n'.describe b'.isBound depth := by
  -- The induction is on what is left of the depth, and not on the two nodes: these have the
  -- same shape only as far as the depth reaches.
  induction hk : depth.toNat generalizing depth n n' with
  | zero =>
      have hdepth : depth ≤ 0 := by omega
      rw [Node.describe_eq_face hn.isBuilt, Node.describe_eq_face hn'.isBuilt]
      exact Face.describe_eq_of_cut_eq ((Node.alikeTo_iff_of_nonpos hdepth).mp h) hdepth _ _
  | succ k ih =>
      obtain ⟨hface, halike⟩ := (Node.alikeTo_iff_of_pos (by omega)).mp h
      have hlength : n.parts.length = n'.parts.length := by
        rw [← Node.parts_face b.isBound, ← Node.parts_face b'.isBound, hface]
      have hparts : List.Forall₂ (fun p p' =>
          p.describe b.isBound (depth - 1) = p'.describe b'.isBound (depth - 1))
          n.parts n'.parts := by
        refine List.forall₂_iff_get.mpr ⟨hlength, fun i hi hi' => ?_⟩
        exact ih (hn.part (List.getElem_mem hi)) (hn'.part (List.getElem_mem hi'))
          (halike i _ _ (List.getElem?_eq_getElem hi) (List.getElem?_eq_getElem hi')) (by omega)
      rw [Node.describe_eq_face hn.isBuilt, Node.describe_eq_face hn'.isBuilt, hface,
        describeAll_congr hparts]

/-- The description of a node that the builders made is finite whatever the placeholders
lead to, it is the same for nodes that show the same to its depth, and it depends on which
placeholders are bound but not on what they are bound to; so do all messages that show a
value. -/
theorem describe_local {b b' : Bindings α} {n n' : Node α} (hn : n.IsSound) (hn' : n'.IsSound)
    (depth : Int) :
    (∃ t, n.describe b.isBound depth = .ok t) ∧
    (Node.AlikeTo b b' depth n n' →
      n.describe b.isBound depth = n'.describe b'.isBound depth) ∧
    ∀ b'' : Bindings α, (∀ id, b''.isBound id = b.isBound id) →
      n.describe b''.isBound depth = n.describe b.isBound depth ∧
        ∀ v : Value α, v.render b''.isBound = v.render b.isBound := by
  refine ⟨hn.describe b.isBound depth, describe_eq_of_alikeTo hn hn', fun b'' h => ?_⟩
  have hbound : b''.isBound = b.isBound := funext h
  rw [hbound]
  exact ⟨rfl, fun _ => rfl⟩

namespace Unfinished

/-- The bindings after the placeholder was resolved with the node that it is in. -/
def knot : Bindings Action := (workshop.run [.resolve 0 (.text "r") (.node node)]).context.bindings

/-- A node that differs from `node` two levels down. -/
def pruned : Node Action := .exclusion letter (.choice [])

theorem alikeTo_pruned : Node.AlikeTo knot .empty 1 node pruned := by
  refine (Node.alikeTo_iff_of_pos (by decide)).mpr ⟨rfl, fun i p p' hp hp' => ?_⟩
  refine (Node.alikeTo_iff_of_nonpos (by decide)).mpr ?_
  rcases i with _ | _ | i
  · cases hp
    cases hp'
    rfl
  · cases hp
    cases hp'
    rfl
  · cases hp

theorem describe_local_knot :
    node.IsSound ∧ pruned.IsSound ∧ Node.AlikeTo knot .empty 1 node pruned ∧
      node.describe knot.isBound 1 = .ok "Exclusion(Literal('a'), Choice(...))" ∧
      node.describe knot.isBound 1 =
        pruned.describe (Bindings.empty : Bindings Action).isBound 1 := by
  have hnode : node.IsSound := isReached.isSound.nodes node List.mem_cons_self
  have hletter : letter.IsSound := isReached.isSound.nodes letter mem_nodes.2
  have hpruned : pruned.IsSound :=
    Node.isSound_of_pair trivial rfl hletter (Node.isSound_of_parts trivial nofun)
  exact ⟨hnode, hpruned, alikeTo_pruned, rfl,
    (describe_local hnode hpruned 1).2.1 alikeTo_pruned⟩

end Unfinished

end Peg
