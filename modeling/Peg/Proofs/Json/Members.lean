import Mathlib.Data.List.Basic
import Mathlib.Data.List.Induction
import Peg.Json.Action
import Peg.Proofs.Json.Syntax

/-!
# The entries of an object

An object is read from its first member to its last, and every member is put into what
is there already. That this keeps the names in the order in which they first come, and
gives each the value that it has last, is shown member by member from the end: one more
member changes the value of its name if the name is there, and is appended if it is not.
-/

namespace Peg.Json

variable {α : Type}

section Names

variable {ks : List Text} {k : Text}

theorem eraseDups_concat (ks : List Text) (k : Text) :
    (ks ++ [k]).eraseDups = ks.eraseDups ++ if ks.contains k then [] else [k] := by
  rw [List.eraseDups_append]
  by_cases h : k ∈ ks <;> simp [List.removeAll, h, List.eraseDups_cons]

theorem nodup_eraseDups (ks : List Text) : ks.eraseDups.Nodup := by
  induction ks using List.reverseRecOn with
  | nil => simp
  | append_singleton ks k ih =>
      rw [eraseDups_concat]
      by_cases h : k ∈ ks
      · simpa [h] using ih
      · simp only [List.contains_iff_mem, h, if_false]
        refine List.nodup_append.mpr ⟨ih, by simp, fun a ha b hb hab => ?_⟩
        rw [hab, List.mem_singleton.mp hb] at ha
        exact h (List.mem_eraseDups.mp ha)

end Names

/-- Sets an entry in a list that is given by names and values. -/
theorem setEntry_filterMap {names : List Text} (hnodup : names.Nodup) {k : Text}
    {v : Value α} (f f' : Text → Option (Value α)) (hf : ∀ name ∈ names, (f name).isSome)
    (hk : f' k = some v) (hother : ∀ name, name ≠ k → f' name = f name) :
    Action.setEntry k v (names.filterMap fun name => (f name).map fun w => (name, w)) =
      (names ++ if names.contains k then [] else [k]).filterMap
        fun name => (f' name).map fun w => (name, w) := by
  induction names with
  | nil => simp [Action.setEntry, hk]
  | cons name names ih =>
      obtain ⟨w, hw⟩ := Option.isSome_iff_exists.mp (hf name (by simp))
      obtain ⟨hname, hnodup⟩ := List.nodup_cons.mp hnodup
      by_cases heq : name = k
      · subst heq
        have hrest : names.filterMap (fun n => (f' n).map fun w => (n, w)) =
            names.filterMap fun n => (f n).map fun w => (n, w) := by
          refine List.filterMap_congr fun n hn => ?_
          rw [hother n fun h => hname (h ▸ hn)]
        simp [hw, hk, hrest, Action.setEntry]
      · have hrest := ih hnodup fun n hn => hf n (by simp [hn])
        have hmem : (name :: names).contains k = names.contains k := by
          rw [Bool.eq_iff_iff]
          simp [Ne.symm heq]
        rw [hmem, List.filterMap_cons_some (by rw [hw]; rfl), Action.setEntry, if_neg heq, hrest,
          List.cons_append, List.filterMap_cons_some (by rw [hother name heq, hw]; rfl)]

theorem entries_eq (members : List (Text × Value α)) :
    Action.entries members = memberEntries members := by
  induction members using List.reverseRecOn with
  | nil => rfl
  | append_singleton members member ih =>
      obtain ⟨k, v⟩ := member
      have hset : Action.entries (members ++ [(k, v)]) =
          Action.setEntry k v (Action.entries members) := by
        simp [Action.entries, List.foldl_append]
      have hnames : (members ++ [(k, v)]).map (·.1) = members.map (·.1) ++ [k] := by simp
      have hlookup : ∀ name, (members ++ [(k, v)]).reverse.lookup name =
          if name = k then some v else members.reverse.lookup name := by
        intro name
        rw [List.reverse_append, List.reverse_singleton, List.singleton_append,
          List.lookup_cons]
        by_cases hname : name = k
        · simp [hname]
        · simp [hname, beq_false_of_ne hname]
      have hsome : ∀ name ∈ (members.map (·.1)).eraseDups,
          (members.reverse.lookup name).isSome := by
        intro name hname
        obtain ⟨member, hmember, rfl⟩ := List.mem_map.mp (List.mem_eraseDups.mp hname)
        rw [List.lookup_isSome_iff]
        exact ⟨member, List.mem_reverse.mpr hmember, beq_self_eq_true _⟩
      rw [hset, ih, memberEntries, memberEntries, hnames, eraseDups_concat,
        setEntry_filterMap (nodup_eraseDups _) _
          (fun name => (members ++ [(k, v)]).reverse.lookup name) hsome]
      · have hcontains : (members.map (·.1)).eraseDups.contains k =
            (members.map (·.1)).contains k := by
          rw [Bool.eq_iff_iff, List.contains_iff_mem, List.contains_iff_mem, List.mem_eraseDups]
        rw [hcontains]
      · rw [hlookup, if_pos rfl]
      · intro name hname
        rw [hlookup, if_neg hname]

end Peg.Json
